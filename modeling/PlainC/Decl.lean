import PlainC.Stmt

set_option autoImplicit false

/-!
Top-level declarations: structs, functions and variables.
-/

namespace PlainC

/-- What a function gives: nothing, or a value of a base type, or, with a star, an array. -/
inductive ResultType where
  | void (word : Place)
  | value (base : BaseName)
  | array (base : BaseName) (star : Place)
  deriving Repr

structure Param where
  base : BaseName
  name : Slot Name
  array : ArrayPart
  deriving Repr

/-- A declaration. In front of a declaration of variables, and where no declaration begins, the
first `tried` lexemes were read as the beginning of a function. -/
inductive Decl where
  | struct (word : Place) (name : Name) (opening : Place) (members : List VarDecl)
      (closing semicolon : Slot Place)
  | function (result : ResultType) (name : Name) (opening : Place)
      (params : Option (Separated (Slot Param))) (closing : Slot Place) (body : Slot Block)
  | vars (tried : Nat) (decl : VarDecl)
  | missing (tried : Nat) (instead : Lexeme)
  deriving Repr

end PlainC
