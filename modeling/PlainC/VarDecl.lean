import PlainC.Expr
import PlainC.Parse

set_option autoImplicit false

/-!
Declarations of variables: a base type and, behind it, the names that are declared, each with an
array part and an initializer of its own.
-/

namespace PlainC

/-- What a variable is initialized with: a value, or the elements of an array in braces. -/
inductive Initializer where
  | value (expr : Expr)
  | elements (opening : Place) (elements : Args) (closing : Slot Place)
  | noElements (opening closing : Place)
  deriving Repr

structure Declarator where
  name : Slot Name
  array : ArrayPart
  /-- The assignment sign and what follows it. -/
  initializer : Option (Place × Initializer)
  deriving Repr

structure VarDecl where
  base : BaseName
  declarators : Separated Declarator
  semicolon : Slot Place
  deriving Repr

/-- The place of the first lexeme. -/
def Initializer.start : Initializer → Place
  | value expr => expr.start
  | elements opening _ _ | noElements opening _ => opening

end PlainC
