import PlainC.Lexeme

set_option autoImplicit false

/-!
The expressions that can stand between the brackets of an array type: whole numbers with signs, the
arithmetic operators and parentheses.
-/

namespace PlainC

inductive Size where
  | literal (text : Name)
  | signed (sign : At Operator) (operand : Size)
  | binary (op : At Operator) (left right : Size)
  | paren (opening : Place) (inner : Size) (closing : Slot Place)
  | missing (instead : Lexeme)
  deriving Repr

/-- The place of the first lexeme. -/
def Size.start : Size → Place
  | literal text => text.place
  | signed sign _ => sign.place
  | binary _ left _ => left.start
  | paren opening _ _ => opening
  | missing instead => instead.place

end PlainC
