import PlainC.Program
import PlainC.Snippet
import PlainC.SymbolTable.Listing
import PlainC.Token

set_option autoImplicit false

/-!
The work on one source file: its text is scanned and analyzed, listings are printed on demand, and
the first diagnostic ends the work.
-/

namespace PlainC

structure SourceFile where
  name : String
  source : String
  deriving Repr

structure CompileOptions where
  listTokens : Bool := false
  listSymbols : Bool := false
  /-- Whether to print what is being done. -/
  verbose : Bool := false
  deriving Repr

/-- What came of the work on a file: the text that was printed, the log, and the program or what is
wrong with it. -/
structure Compilation where
  output : String
  records : List LogRecord
  result : Except Diagnostic Program
  deriving Repr

namespace Compilation

/-- Text that is printed if it is wanted. -/
def textIf (wanted : Bool) (text : String) : String := if wanted then text else ""

/-- A listing between two headings. -/
def framed (title listing : String) : String :=
  "=== " ++ title ++ " ===\n" ++ listing ++ "=== End " ++ title ++ " ===\n\n"

/-- The end of the work, with a diagnostic. -/
def failed (file : SourceFile) (output : String) (records : List LogRecord)
    (diagnostic : Diagnostic) : Compilation :=
  ⟨output ++ diagnostic.render file.name file.source, records, .error diagnostic⟩

/-- The work on the tokens of a file, after some output and log. -/
def ofTokens (file : SourceFile) (options : CompileOptions) (output : String)
    (records : List LogRecord) (tokens : List Token) : Compilation :=
  let output := output ++
    textIf options.listTokens (framed "Tokens" (Token.listing tokens)) ++
    textIf options.verbose ("Analyzing " ++ toString tokens.length ++ " tokens...\n")
  let analysis := Program.ofTokens tokens
  let records := records ++ analysis.records
  match analysis.result with
  | .error fault => failed file output records fault.diagnostic
  | .ok program =>
    ⟨output ++ textIf options.listSymbols (framed "Symbols" program.table.listing),
      records ++ [.fileAnalyzed file.name], .ok program⟩

def ofFile (file : SourceFile) (options : CompileOptions) : Compilation :=
  let output := textIf options.verbose ("Scanning " ++ file.name ++ "...\n")
  let scanned := scan file.source
  match scanned.result with
  | .error diagnostic => failed file output scanned.records diagnostic
  | .ok tokens =>
    ofTokens file options output
      (scanned.records ++ [.fileScanned file.name tokens.length]) tokens

end Compilation

end PlainC
