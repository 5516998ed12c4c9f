import PlainC.Literal.Basic

set_option autoImplicit false

/-!
Character and string literals: the text between two marks, with its escapes resolved.
-/

namespace PlainC

namespace Quoted

/-- The characters that escaped text stands for. A backslash that begins no escape is refused. -/
def unescape? : List Char → Option (List Char)
  | [] => some []
  | '\\' :: letter :: cs =>
    match Escape.decode? letter with
    | some c => (unescape? cs).map (c :: ·)
    | none => none
  | c :: cs => if c = '\\' then none else (unescape? cs).map (c :: ·)

/-- The text between a mark at the front and another one at the end. -/
def between? (mark : Char) : List Char → Option (List Char)
  | [] => none
  | c :: cs => if c = mark ∧ cs.getLast? = some mark then some cs.dropLast else none

/-- The characters of a literal in the given marks. -/
def contents? (mark : Char) (text : String) : Option (List Char) :=
  (between? mark text.toList).bind unescape?

/-- The value of a character literal, which has exactly one character of ASCII. -/
def decodeChar (text : String) : Except LiteralError Char :=
  match contents? '\'' text with
  | some [c] => if c.toNat < 128 then .ok c else .error (.malformed text)
  | _ => .error (.malformed text)

/-- The value of a string literal. -/
def decodeString (text : String) : Except LiteralError String :=
  match contents? '"' text with
  | some cs => .ok (String.ofList cs)
  | none => .error (.malformed text)

end Quoted

end PlainC
