import PlainC.Size

set_option autoImplicit false

/-!
The written form of a type: a base, and behind it, or behind the name that is declared, an array
part.
-/

namespace PlainC

/-- A base type as it is written. -/
inductive BaseName where
  | int (word : Place)
  | double (word : Place)
  | char (word : Place)
  | struct (word : Place) (name : Slot Name)
  deriving Repr

/-- What makes a type one of arrays: nothing, empty brackets, or brackets with a size. -/
inductive ArrayPart where
  | absent
  | unsized (opening closing : Place)
  | sized (opening : Place) (size : Size) (closing : Slot Place)
  deriving Repr

structure TypeName where
  base : BaseName
  array : ArrayPart
  deriving Repr

end PlainC
