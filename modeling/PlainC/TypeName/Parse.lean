import PlainC.Size.Parse
import PlainC.TypeName

set_option autoImplicit false

/-!
Reading types.
-/

namespace PlainC

/-- A base type, if the next lexeme begins one. -/
def BaseName.parse? : Parse (Option BaseName) := do
  match ← Parse.keyword? .intKw with
  | some word => return some (.int word)
  | none =>
    match ← Parse.keyword? .doubleKw with
    | some word => return some (.double word)
    | none =>
      match ← Parse.keyword? .charKw with
      | some word => return some (.char word)
      | none =>
        match ← Parse.keyword? .structKw with
        | some word => return some (.struct word (← Parse.name))
        | none => return none

def ArrayPart.parse : Parse ArrayPart := do
  match ← Parse.mark? .leftBracket with
  | none => return .absent
  | some opening =>
    match ← Parse.mark? .rightBracket with
    | some closing => return .unsized opening closing
    | none =>
      let size ← Size.parse
      return .sized opening size (← Parse.mark .rightBracket)

def TypeName.parse? : Parse (Option TypeName) := do
  match ← BaseName.parse? with
  | some base => return some ⟨base, ← ArrayPart.parse⟩
  | none => return none

end PlainC
