import PlainC.Text.Escape
import PlainC.Token.Scan

set_option autoImplicit false

/-!
Diagnostics: what is wrong, in words, with the bytes and the line it is about.
-/

namespace PlainC

/-- What a diagnostic says: a lexeme is wrong, one thing stands where another is expected, or the
program breaks a rule of the language. -/
inductive Complaint where
  | lexical (message lexeme : String)
  | syntactic (expected found : String)
  | semantic (message : String)
  deriving DecidableEq, Repr

structure Diagnostic where
  complaint : Complaint
  span : Span
  line : Nat
  deriving DecidableEq, Repr

namespace Complaint

/-- The category of a complaint. -/
def category : Complaint → String
  | lexical .. => "lexical error"
  | syntactic .. => "syntax error"
  | semantic .. => "semantic error"

/-- The heading under which a complaint is shown. -/
def title : Complaint → String
  | lexical .. => "Lexical error"
  | syntactic .. => "Syntax error"
  | semantic .. => "Semantic error"

def message : Complaint → String
  | lexical message _ | semantic message => message
  | syntactic expected found => "expected " ++ expected ++ ", found " ++ found

end Complaint

/-- A diagnostic in one line of text. -/
def Diagnostic.display (diagnostic : Diagnostic) : String :=
  "line " ++ toString diagnostic.line ++ ": " ++ diagnostic.complaint.message

namespace ScanFault

def message (fault : ScanFault) : String :=
  match fault.problem with
  | .unrecognized first => "unrecognized character '" ++ escapedChar first ++ "'"
  | .octalDigit => "invalid digit in octal literal '" ++ fault.lexeme ++ "'"
  | .malformedNumber tail => "malformed number '" ++ fault.lexeme ++ tail ++ "'"

def diagnostic (fault : ScanFault) : Diagnostic :=
  ⟨.lexical fault.message fault.lexeme, fault.span, fault.line⟩

end ScanFault

end PlainC
