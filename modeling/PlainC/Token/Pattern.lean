import PlainC.Literal.Basic

set_option autoImplicit false

/-!
Patterns over the front of a text, and the shapes of lexemes written with them. A pattern answers
with the number of characters that its longest match takes.
-/

namespace PlainC

/-- The length of the match at the front of a text, if there is one. -/
abbrev Pattern := List Char → Option Nat

namespace Pattern

/-- One character of a class. -/
def one (cls : Char → Bool) : Pattern
  | [] => none
  | c :: _ => if cls c then some 1 else none

/-- As many characters of a class as there are, and at least one. -/
def many (cls : Char → Bool) : Pattern := fun cs =>
  match (cs.takeWhile cls).length with
  | 0 => none
  | n + 1 => some (n + 1)

/-- The given characters. -/
def exactly (text : String) : Pattern := fun cs =>
  if text.toList.isPrefixOf cs then some text.length else none

/-- A first pattern and, directly behind it, a second one. -/
def andThen (first second : Pattern) : Pattern := fun cs =>
  match first cs with
  | none => none
  | some n => (second (cs.drop n)).map (n + ·)

/-- A pattern that may be absent. -/
def optionally (pattern : Pattern) : Pattern := fun cs =>
  some ((pattern cs).getD 0)

/-! ### Character classes -/

/-- Space, tab, line feed, vertical tab, form feed and carriage return. -/
def isBlank (c : Char) : Bool :=
  c = ' ' || ('\t' ≤ c && c ≤ '\r')

def isDigit (c : Char) : Bool :=
  '0' ≤ c && c ≤ '9'

def isHexDigit (c : Char) : Bool :=
  isDigit c || ('a' ≤ c && c ≤ 'f') || ('A' ≤ c && c ≤ 'F')

def isWordStart (c : Char) : Bool :=
  ('a' ≤ c && c ≤ 'z') || ('A' ≤ c && c ≤ 'Z') || c = '_'

def isWordChar (c : Char) : Bool :=
  isWordStart c || isDigit c

/-- The characters that may follow a backslash. -/
def isEscape (c : Char) : Bool :=
  (Escape.decode? c).isSome

/-- A character that stands for itself between two marks. -/
def isPlain (mark : Char) (c : Char) : Bool :=
  c ≠ mark && c ≠ '\\' && c ≠ '\n'

/-! ### Trivia -/

def blanks : Pattern := many isBlank

/-- From two slashes to the end of the line, whose line feed is left. -/
def lineComment : Pattern := fun cs =>
  match cs with
  | '/' :: '/' :: rest => some (2 + (rest.takeWhile (· ≠ '\n')).length)
  | _ => none

/-- The characters up to and with the first star that a slash follows. -/
def throughCloser : Pattern
  | [] => none
  | '*' :: '/' :: _ => some 2
  | _ :: cs => (throughCloser cs).map (· + 1)

def blockComment : Pattern := andThen (exactly "/*") throughCloser

/-- A slash that opens no comment. A star behind it always opens one, even one without end. -/
def slash : Pattern
  | '/' :: '*' :: _ => none
  | '/' :: _ => some 1
  | _ => none

/-! ### Words and numbers -/

def word : Pattern := andThen (one isWordStart) (optionally (many isWordChar))

def digits : Pattern := many isDigit

def hexInteger : Pattern :=
  andThen (andThen (exactly "0") (one fun c => c = 'x' || c = 'X')) (many isHexDigit)

def exponent : Pattern :=
  andThen (one fun c => c = 'e' || c = 'E')
    (andThen (optionally (one fun c => c = '+' || c = '-')) digits)

def fractionReal : Pattern :=
  andThen (andThen digits (andThen (exactly ".") digits)) (optionally exponent)

def exponentReal : Pattern := andThen digits exponent

/-! ### Quoted literals -/

/-- The length of all the complete items, plain characters and escapes, at the front of a text. -/
def items (mark : Char) : List Char → Nat
  | [] => 0
  | '\\' :: c :: cs => if isEscape c then 2 + items mark cs else 0
  | c :: cs => if isPlain mark c then 1 + items mark cs else 0

/-- One plain character or one escape. -/
def item (mark : Char) : Pattern
  | [] => none
  | '\\' :: c :: _ => if isEscape c then some 2 else none
  | c :: _ => if isPlain mark c then some 1 else none

def character : Pattern := andThen (andThen (exactly "'") (item '\'')) (exactly "'")

def string : Pattern :=
  andThen (andThen (exactly "\"") fun cs => some (items '"' cs)) (exactly "\"")

end Pattern

end PlainC
