import PlainC.SymbolTable.Externals

set_option autoImplicit false

/-!
Symbol tables with handles. In place of a name a symbol has the handle that the table gave the name
when it first met it, and symbols are compared by their handles. A text is looked up by its handle,
so one that the table has not met is not even looked for.
-/

namespace PlainC

namespace Interned

/-- A declared name, with handles for all names in it. -/
structure Symbol where
  name : Nat
  cls : SymbolClass
  ty : Ty
  storage : Storage
  depth : Nat
  line : Nat
  args : List Symbol
  members : List Symbol

structure Table where
  /-- The names that were met, each of which has its position as its handle. -/
  names : List String
  symbols : List Symbol

namespace Table

def empty : Table := ⟨[], []⟩

/-! ### Names -/

/-- The handle of a text that was met before. -/
def handle? (table : Table) (text : String) : Option Nat :=
  table.names.findIdx? (· = text)

/-- The handle of a text, which is given to it now if the table has not met it. -/
def intern (table : Table) (text : String) : Nat × Table :=
  match table.handle? text with
  | some handle => (handle, table)
  | none => (table.names.length, { table with names := table.names ++ [text] })

/-- The text that has a handle. -/
def resolve (table : Table) (handle : Nat) : String :=
  (table.names[handle]?).getD "<unknown>"

mutual

/-- A symbol with the handles of its names, which the table meets in order: its own one, those in
its arguments, and those in its members. -/
def enter (table : Table) : PlainC.Symbol → Symbol × Table
  | ⟨name, cls, ty, storage, depth, line, args, members⟩ =>
    let (handle, table) := table.intern name
    let (args, table) := enterAll table args
    let (members, table) := enterAll table members
    (⟨handle, cls, ty, storage, depth, line, args, members⟩, table)

def enterAll (table : Table) : List PlainC.Symbol → List Symbol × Table
  | [] => ([], table)
  | symbol :: rest =>
    let (symbol, table) := enter table symbol
    let (rest, table) := enterAll table rest
    (symbol :: rest, table)

end

/-! ### Looking up -/

def size (table : Table) : Nat := table.symbols.length

def get? (table : Table) (index : Nat) : Option Symbol := table.symbols[index]?

/-- The index of the most recent symbol of a name. -/
def position? (table : Table) (name : Nat) : Option Nat :=
  lastIndex? (fun symbol => symbol.name = name) table.symbols

/-- The most recent symbol of a name. -/
def find? (table : Table) (name : Nat) : Option Symbol :=
  (table.position? name).bind table.get?

/-- The most recent symbol of a name at a depth. -/
def findAtDepth? (table : Table) (name depth : Nat) : Option Symbol :=
  table.symbols.reverse.find? fun symbol => symbol.name = name && symbol.depth = depth

/-- The most recent symbol of a text. -/
def findText? (table : Table) (text : String) : Option Symbol :=
  (table.handle? text).bind table.find?

/-- The index of the most recent struct of a name. -/
def findStruct? (table : Table) (name : Nat) : Option Nat :=
  lastIndex? (fun symbol => symbol.name = name && symbol.cls = .struct) table.symbols

/-- The index of the most recent struct of a text. -/
def findStructText? (table : Table) (text : String) : Option Nat :=
  (table.handle? text).bind table.findStruct?

/-- The declaration of the struct with an index. -/
def structAt? (table : Table) (index : Nat) : Option Symbol :=
  (table.get? index).filter fun symbol => symbol.cls = .struct

/-! ### Changing -/

/-- Declares a symbol, at the index that is given back, unless its name is taken at its depth. -/
def add (table : Table) (symbol : Symbol) : Except Redefinition Nat × Table :=
  match table.findAtDepth? symbol.name symbol.depth with
  | some previous => (.error ⟨table.resolve symbol.name, previous.line⟩, table)
  | none => (.ok table.size, { table with symbols := table.symbols ++ [symbol] })

/-- Appends an argument to the symbol at an index. -/
def pushArg (table : Table) (index : Nat) (arg : Symbol) : Table :=
  { table with symbols := table.symbols.modify index fun symbol =>
      { symbol with args := symbol.args ++ [arg] } }

/-- Appends a member to the symbol at an index. -/
def pushMember (table : Table) (index : Nat) (member : Symbol) : Table :=
  { table with symbols := table.symbols.modify index fun symbol =>
      { symbol with members := symbol.members ++ [member] } }

/-- Takes back all symbols behind the first `size` ones. The names stay. -/
def truncate (table : Table) (size : Nat) : Table :=
  { table with symbols := table.symbols.take size }

/-- Declares symbols in order, up to the first whose name is taken. -/
def addAll (table : Table) : List PlainC.Symbol → Option Redefinition × Table
  | [] => (none, table)
  | symbol :: rest =>
    let (symbol, table) := table.enter symbol
    match table.add symbol with
    | (.ok _, table) => table.addAll rest
    | (.error redefinition, table) => (some redefinition, table)

def addExternals (table : Table) : Option Redefinition × Table :=
  table.addAll SymbolTable.externals

end Table

/-! ### Operations -/

/-- What can be done to a table. The handles in a symbol may be any numbers; what only looks something
up does nothing to the table. -/
inductive Change where
  | intern (text : String)
  | add (symbol : Symbol)
  | pushArg (index : Nat) (arg : Symbol)
  | pushMember (index : Nat) (member : Symbol)
  | truncate (size : Nat)
  | addExternals

def Change.apply (table : Table) : Change → Table
  | intern text => (table.intern text).2
  | add symbol => (table.add symbol).2
  | pushArg index arg => table.pushArg index arg
  | pushMember index member => table.pushMember index member
  | truncate size => table.truncate size
  | addExternals => table.addExternals.2

/-- The table behind some changes. -/
def Table.perform (table : Table) (changes : List Change) : Table :=
  changes.foldl Change.apply table

/-- What is done to a table with the texts of names, all of which are interned in front of a
symbol. -/
inductive Operation where
  | intern (text : String)
  | add (symbol : PlainC.Symbol)
  | pushArg (index : Nat) (arg : PlainC.Symbol)
  | pushMember (index : Nat) (member : PlainC.Symbol)
  | truncate (size : Nat)
  | addExternals

namespace Operation

def apply (table : Table) : Operation → Table
  | intern text => (table.intern text).2
  | add symbol => ((table.enter symbol).2.add (table.enter symbol).1).2
  | pushArg index arg => (table.enter arg).2.pushArg index (table.enter arg).1
  | pushMember index member => (table.enter member).2.pushMember index (table.enter member).1
  | truncate size => table.truncate size
  | addExternals => table.addExternals.2

/-- The operation on a table with texts. -/
def applyTexts (table : SymbolTable) : Operation → SymbolTable
  | intern text => table.intern text
  | add symbol => (table.add symbol).2
  | pushArg index arg => table.addArg index arg
  | pushMember index member => table.addMember index member
  | truncate size => table.truncate size
  | addExternals => table.addExternals.2

end Operation

/-- The table behind some operations. -/
def Table.run (table : Table) (ops : List Operation) : Table :=
  ops.foldl Operation.apply table

/-- The table with texts behind some operations. -/
def runTexts (table : SymbolTable) (ops : List Operation) : SymbolTable :=
  ops.foldl Operation.applyTexts table

end Interned

end PlainC
