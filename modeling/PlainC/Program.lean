import PlainC.Decl.Check
import PlainC.Decl.Parse
import PlainC.SymbolTable.Externals

set_option autoImplicit false

/-!
Analysis of a whole program: its tokens are read as declarations, which are then checked in order,
behind the external functions.
-/

namespace PlainC

/-- An accepted program. -/
structure Program where
  /-- The external functions and what is declared at the top level. -/
  table : SymbolTable
  /-- The number of tokens in front of the end of input. -/
  position : Nat
  deriving Repr

/-- The tokens of a text, of which it notes the number, or the first thing that is wrong. -/
def scan (source : String) : Logged Diagnostic (List Token) :=
  match tokenize source with
  | .ok tokens => do
    Logged.write (.scanned tokens.length)
    return tokens
  | .error fault => Logged.fail fault.diagnostic

namespace Program

/-- The symbol of a name. -/
def find? (program : Program) (name : String) : Option Symbol := program.table.find? name

/-- The members of the struct of a name. -/
def structMembers? (program : Program) (name : String) : Option (List Symbol) :=
  ((program.table.findStruct? name).bind program.table.structAt?).map Symbol.members

/-- The table that declarations make, behind the external functions. -/
def tableOfDecls (decls : List Decl) : Checked SymbolTable := do
  let declared ← decls.foldlM Decl.check ⟨SymbolTable.initial, 0⟩
  return declared.table

/-- The program that tokens make. They must end with the end of input, and what stands behind the
first end of input is not read. -/
def ofTokens (tokens : List Token) : Checked Program := do
  let lexemes := Lexeme.number 0 tokens
  match lexemes.getLast? with
  | none => Checked.refuse .noTokens ⟨0, ⟨0, 0⟩, 1⟩
  | some final =>
    if final.value ≠ .endOfInput then
      Checked.unexpected .endOfInput final
    let front := lexemes.takeWhile fun lexeme => lexeme.value ≠ .endOfInput
    let last := lexemes[front.length]?.getD final
    let table ← tableOfDecls (Decl.parseAll last front).1
    Logged.write (.finished front.length tokens.length)
    return ⟨table, front.length⟩

/-- The program that a text makes, or what is wrong with it. -/
def ofSource (source : String) : Logged Diagnostic Program := do
  let tokens ← scan source
  (ofTokens tokens).mapError Fault.diagnostic

end Program

end PlainC
