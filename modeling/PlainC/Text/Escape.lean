import PlainC.Text.Printable

set_option autoImplicit false

/-!
Characters written so that they can be read in one line.
-/

namespace PlainC

/-- A character by its number, in lower-case hexadecimal digits and braces. -/
def escapedByNumber (c : Char) : String :=
  "\\u\x7b" ++ String.ofList (Nat.toDigits 16 c.toNat) ++ "\x7d"

/-- A printable ASCII character as it is, a tab, line break, quote or backslash behind a backslash,
and any other character by its number. -/
def escapedChar (c : Char) : String :=
  match c with
  | '\t' => "\\t"
  | '\r' => "\\r"
  | '\n' => "\\n"
  | '\'' => "\\'"
  | '"' => "\\\""
  | '\\' => "\\\\"
  | _ => if ' ' ≤ c ∧ c ≤ '~' then c.toString else escapedByNumber c

/-- A character inside of double quotes: as it is, unless it would end them or cannot be printed. -/
def quotedChar (c : Char) : String :=
  match c with
  | '\x00' => "\\0"
  | '\t' | '\r' | '\n' | '"' | '\\' => escapedChar c
  | _ => if isPrintable c then c.toString else escapedByNumber c

/-- A text in double quotes. -/
def quotedText (text : String) : String :=
  "\"" ++ String.join (text.toList.map quotedChar) ++ "\""

end PlainC
