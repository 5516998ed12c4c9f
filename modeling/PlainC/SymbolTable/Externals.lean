import PlainC.SymbolTable.Basic

set_option autoImplicit false

/-!
The external functions, which are there without a declaration.
-/

namespace PlainC

namespace SymbolTable

/-- The parameter of an external function. -/
def externalArg (name : String) (ty : Ty) : Symbol :=
  { name, cls := .var, ty, storage := .argument, depth := 1, line := 0 }

/-- An external function that gives a value of a type. -/
def externalFunction (name : String) (result : Ty) (args : List Symbol) : Symbol :=
  { name, cls := .external, ty := result, storage := .global, depth := 0, line := 0, args }

/-- An array of characters of any size. -/
def textTy : Ty := ⟨.char, .unsized⟩

/-- The external functions: output and input of a text, an integer, a real number and a character,
and the time. -/
def externals : List Symbol :=
  [externalFunction "put_s" .void [externalArg "s" textTy],
   externalFunction "get_s" .void [externalArg "s" textTy],
   externalFunction "put_i" .void [externalArg "i" .int],
   externalFunction "get_i" .int [],
   externalFunction "put_d" .void [externalArg "d" .double],
   externalFunction "get_d" .double [],
   externalFunction "put_c" .void [externalArg "c" .char],
   externalFunction "get_c" .char [],
   externalFunction "seconds" .double []]

/-- Declares symbols in order, up to the first whose name is taken. -/
def addAll (table : SymbolTable) : List Symbol → Option Redefinition × SymbolTable
  | [] => (none, table)
  | symbol :: rest =>
    match table.add symbol with
    | (.ok _, table) => table.addAll rest
    | (.error redefinition, table) => (some redefinition, table)

def addExternals (table : SymbolTable) : Option Redefinition × SymbolTable :=
  table.addAll externals

/-- The table with which an analysis begins. -/
def initial : SymbolTable := empty.addExternals.2

end SymbolTable

end PlainC
