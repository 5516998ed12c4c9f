import PlainC.SymbolTable.Basic
import PlainC.Text.Escape

set_option autoImplicit false

/-!
Listings of a symbol table: one line for each symbol with its parts behind it, or all in one line
with classes and depths.
-/

namespace PlainC

/-- The word for a class in a listing. -/
def SymbolClass.word : SymbolClass → String
  | var => "var"
  | function => "fn"
  | external => "extern fn"
  | struct => "struct"

/-- The full name of a class. -/
def SymbolClass.label : SymbolClass → String
  | var => "Variable"
  | function => "Function"
  | external => "ExternFunction"
  | struct => "Struct"

namespace SymbolTable

/-- A name with its type. -/
def typed (table : SymbolTable) (symbol : Symbol) : String :=
  symbol.name ++ ": " ++ table.typeName symbol.ty

/-- The line of a symbol by itself. -/
def headLine (table : SymbolTable) (symbol : Symbol) : String :=
  let what := if symbol.cls = .struct then symbol.name else table.typed symbol
  symbol.cls.word ++ " " ++ what ++ "\n"

/-- The line of an argument or member. -/
def partLine (table : SymbolTable) (part : Symbol) : String :=
  let role := if part.storage = .argument then "arg" else "member"
  "    " ++ role ++ " " ++ table.typed part ++ "\n"

/-- The lines of a symbol: its own and those of its members and arguments. -/
def symbolLines (table : SymbolTable) (symbol : Symbol) : List String :=
  table.headLine symbol :: (symbol.members ++ symbol.args).map table.partLine

/-- The lines of all symbols. -/
def listing (table : SymbolTable) : String :=
  String.join (table.symbols.flatMap table.symbolLines)

/-- The names with their classes and depths, in one line. -/
def summary (table : SymbolTable) : String :=
  let entry (symbol : Symbol) : String :=
    "(" ++ quotedText symbol.name ++ ", " ++ symbol.cls.label ++ ", " ++ toString symbol.depth ++ ")"
  "[" ++ String.intercalate ", " (table.symbols.map entry) ++ "]"

end SymbolTable

end PlainC
