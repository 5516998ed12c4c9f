import PlainC.Diagnostic
import PlainC.Lexeme
import PlainC.Literal.Basic

set_option autoImplicit false

/-!
Faults of a program: the cause of each and the token it is found at. The wording of the causes is
all in this module; types are given in them by name.
-/

namespace PlainC

/-- What the grammar asks for. -/
inductive Wanted where
  | declaration | statement | expression | parameterType
  | structName | variableName | parameterName | memberName
  | mark (mark : Delimiter)
  | endOfInput
  deriving DecidableEq, Repr

/-- A rule of the language that a program breaks. -/
inductive Violation where
  | redefinition (name : String) (previousLine : Nat)
  | undefinedStruct (name : String)
  | sizeNotConstant
  | sizeOperandNotConstant (found : Kind)
  | sizeNotPositive (size : Int)
  | sizeTooLarge (size : Int)
  | sizeOverflow
  | sizeDividedByZero
  | memberInitialized (name : String)
  | containsItself (struct : String)
  | bracesForScalar (target : String)
  | elementMismatch (element value : String)
  | initializerMismatch (target value : String)
  | tooManyInitializers (count size : Nat)
  | undefinedSymbol (name : String)
  | notCallable (name : String)
  | functionAsValue (name : String)
  | structAsValue (name : String)
  | tooManyArguments (name : String) (expected : Nat)
  | tooFewArguments (name : String) (expected given : Nat)
  | argumentMismatch (name : String) (position : Nat) (value param : String)
  | stringTooLong
  | notIndexable (value : String)
  | indexNotInt (index : String)
  | memberOfNonStruct (value : String)
  | noSuchMember (struct member : String)
  | invalidOperand (value : String) (op : Operator)
  | realRemainder
  | castMismatch (value target : String)
  | notAssignable
  | arrayAssigned (target : String)
  | assignMismatch (value target : String)
  | structTested
  | voidTested
  | breakOutsideLoop
  | voidReturnsValue (name : String)
  | returnWithoutValue (name result : String)
  | returnMismatch (value name result : String)
  deriving DecidableEq, Repr

/-- Why a program is refused. -/
inductive Cause where
  | literal (error : LiteralError)
  | unexpected (wanted : Wanted) (found : Kind)
  | noTokens
  | violation (broken : Violation)
  deriving DecidableEq, Repr

structure Fault where
  cause : Cause
  place : Place
  deriving DecidableEq, Repr

def Wanted.text : Wanted → String
  | declaration => "declaration"
  | statement => "statement"
  | expression => "expression"
  | parameterType => "parameter type"
  | structName => "struct name"
  | variableName => "variable name"
  | parameterName => "parameter name"
  | memberName => "member name"
  | mark delimiter => (Kind.delimiter delimiter).shown
  | endOfInput => Kind.endOfInput.shown

def Violation.message : Violation → String
  | redefinition name previousLine =>
    "symbol redefinition: " ++ name ++
      if previousLine > 0 then
        " (previously declared on line " ++ toString previousLine ++ ")"
      else ""
  | undefinedStruct name => "undefined struct: " ++ name
  | sizeNotConstant => "array size must be a constant integer expression"
  | sizeOperandNotConstant found =>
    "array size must be a constant integer expression, found " ++ found.shown
  | sizeNotPositive size => "array size must be positive, got " ++ toString size
  | sizeTooLarge size => "array size too large: " ++ toString size
  | sizeOverflow => "array size overflows"
  | sizeDividedByZero => "division by zero in array size"
  | memberInitialized name => "struct member " ++ name ++ " cannot be initialized"
  | containsItself struct => "struct " ++ struct ++ " cannot contain a member of its own type"
  | bracesForScalar target => "a brace initializer needs an array, not " ++ target
  | elementMismatch element value =>
    "cannot initialize an element of type " ++ element ++ " with " ++ value
  | initializerMismatch target value => "cannot initialize " ++ target ++ " with " ++ value
  | tooManyInitializers count size =>
    "too many initializers: " ++ toString count ++ " for an array of " ++ toString size
  | undefinedSymbol name => "undefined symbol: " ++ name
  | notCallable name => name ++ " is not a function"
  | functionAsValue name => "function " ++ name ++ " used without a call"
  | structAsValue name => "struct " ++ name ++ " used as a value"
  | tooManyArguments name expected =>
    "too many arguments in call to " ++ name ++ " (expected " ++ toString expected ++ ")"
  | tooFewArguments name expected given =>
    "too few arguments in call to " ++ name ++ " (expected " ++ toString expected ++ ", got " ++
      toString given ++ ")"
  | argumentMismatch name position value param =>
    "argument " ++ toString position ++ " of " ++ name ++ ": cannot convert " ++ value ++ " to " ++
      param
  | stringTooLong => "string literal too long"
  | notIndexable value => "only an array can be indexed, not " ++ value
  | indexNotInt index => "array index must be an int, not " ++ index
  | memberOfNonStruct value => "member access on a non-struct value of type " ++ value
  | noSuchMember struct member => struct ++ " has no member " ++ member
  | invalidOperand value op =>
    "invalid operand of type " ++ value ++ " for " ++ (Kind.operator op).shown
  | realRemainder => "operands of '%' must be char or int"
  | castMismatch value target => "cannot cast " ++ value ++ " to " ++ target
  | notAssignable => "cannot assign to a non-lvalue"
  | arrayAssigned target => "cannot assign to an array of type " ++ target
  | assignMismatch value target => "cannot assign " ++ value ++ " to " ++ target
  | structTested => "a struct cannot be logically tested"
  | voidTested => "a void value cannot be logically tested"
  | breakOutsideLoop => "break outside of a loop"
  | voidReturnsValue name => "void function " ++ name ++ " cannot return a value"
  | returnWithoutValue name result =>
    "function " ++ name ++ " must return a value of type " ++ result
  | returnMismatch value name result =>
    "cannot return " ++ value ++ " from function " ++ name ++ " returning " ++ result

/-- A cause in words. The lexeme of a bad literal is its text. -/
def Cause.complaint : Cause → Complaint
  | literal error => .lexical error.message error.text
  | unexpected wanted found => .syntactic wanted.text found.shown
  | noTokens => .syntactic Wanted.endOfInput.text "an empty token sequence"
  | violation broken => .semantic broken.message

def Fault.diagnostic (fault : Fault) : Diagnostic :=
  ⟨fault.cause.complaint, fault.place.span, fault.place.line⟩

end PlainC
