set_option autoImplicit false

/-!
Types: a base and an extent, which is that of a scalar or of an array with or without a size.
Arithmetic has the wider of two arithmetic types, and `Ty.accepts` says which values convert.
-/

namespace PlainC

/-- A base type. A struct is known by the index of its declaration in the symbol table. -/
inductive Base where
  | int | double | char
  | struct (index : Nat)
  | void
  deriving DecidableEq, Repr

inductive Extent where
  | scalar
  /-- An array of any size: `[]` -/
  | unsized
  | sized (size : Nat)
  deriving DecidableEq, Repr

structure Ty where
  base : Base
  extent : Extent
  deriving DecidableEq, Repr

/-- The name of a base type; a struct is numbered. -/
def Base.text : Base → String
  | int => "int"
  | double => "double"
  | char => "char"
  | struct index => "struct #" ++ toString index
  | void => "void"

/-- What is written behind the name of a base type. -/
def Extent.text : Extent → String
  | scalar => ""
  | unsized => "[]"
  | sized size => "[" ++ toString size ++ "]"

/-- The order of the arithmetic base types by width. -/
def Base.rank? : Base → Option Nat
  | char => some 0
  | int => some 1
  | double => some 2
  | struct _ | void => none

namespace Ty

def int : Ty := ⟨.int, .scalar⟩
def double : Ty := ⟨.double, .scalar⟩
def char : Ty := ⟨.char, .scalar⟩
def void : Ty := ⟨.void, .scalar⟩
def struct (index : Nat) : Ty := ⟨.struct index, .scalar⟩

def text (ty : Ty) : String := ty.base.text ++ ty.extent.text

/-- The type of an element of an array; of a scalar it is the type itself. -/
def element (ty : Ty) : Ty := { ty with extent := .scalar }

def isArray (ty : Ty) : Bool := ty.extent ≠ .scalar

def isStruct (ty : Ty) : Bool :=
  match ty.base with
  | .struct _ => true
  | _ => false

/-- Whether the base type is that of no value. -/
def isVoid (ty : Ty) : Bool := ty.base = .void

/-- The index of the declaration of a struct, be it of one or of an array of them. -/
def structIndex? (ty : Ty) : Option Nat :=
  match ty.base with
  | .struct index => some index
  | _ => none

/-- Whether the type is a scalar that has a width. -/
def isArithmetic (ty : Ty) : Bool := !ty.isArray && ty.base.rank?.isSome

/-- The wider of two arithmetic types. -/
def promote? (left right : Ty) : Option Ty :=
  if left.isArray || right.isArray then none
  else match left.base.rank?, right.base.rank? with
    | some l, some r => some (if l ≥ r then left else right)
    | _, _ => none

/-- Whether a value of the type `source` converts to the type `target`: an array to one of the same
base whatever their sizes, a struct to the same struct, and any arithmetic scalar to any other. -/
def accepts (target source : Ty) : Bool :=
  match target.isArray, source.isArray with
  | true, true => target.base = source.base
  | false, false =>
    match target.base, source.base with
    | .struct i, .struct j => i = j
    | target, source => target.rank?.isSome && source.rank?.isSome
  | _, _ => false

end Ty

end PlainC
