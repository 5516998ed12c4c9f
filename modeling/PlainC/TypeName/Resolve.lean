import PlainC.Size.Value
import PlainC.SymbolTable.Basic
import PlainC.TypeName

set_option autoImplicit false

/-!
The types that are meant by what is written.
-/

namespace PlainC

/-- The greatest number of elements that an array can have. -/
def maxExtent : Nat := 0xffffffff

def BaseName.resolve (table : SymbolTable) : BaseName → Checked Base
  | int _ => pure .int
  | double _ => pure .double
  | char _ => pure .char
  | struct _ slot => do
    let name ← Checked.require .structName slot
    match table.findStruct? name.value with
    | some index => return .struct index
    | none => Checked.violate (.undefinedStruct name.value) name.place

namespace ArrayPart

/-- Whether a lexeme between brackets looks like a part of their expression. -/
def looksLikeOperand : Kind → Bool
  | .identifier _ | .operator _ | .literal _ _ => true
  | _ => false

/-- The bracket behind a size. What could belong to the size is no constant. -/
def requireClosing : Slot Place → Checked Unit
  | .found _ => pure ()
  | .missing instead =>
    if looksLikeOperand instead.value then Checked.violate .sizeNotConstant instead.place
    else Checked.unexpected (.mark .rightBracket) instead

def extent : ArrayPart → Checked Extent
  | absent => pure .scalar
  | unsized _ _ => pure .unsized
  | sized _ size closing => do
    let value ← size.value
    requireClosing closing
    if value ≤ 0 then
      Checked.violate (.sizeNotPositive value) size.start
    else if value > maxExtent then
      Checked.violate (.sizeTooLarge value) size.start
    else
      return .sized value.toNat

end ArrayPart

def TypeName.resolve (table : SymbolTable) (name : TypeName) : Checked Ty := do
  let base ← name.base.resolve table
  return ⟨base, ← name.array.extent⟩

end PlainC
