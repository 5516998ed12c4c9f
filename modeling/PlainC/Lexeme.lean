import PlainC.Token

set_option autoImplicit false

/-!
Lexemes: tokens that know their place, which is all that the leaves of a syntax tree are made of.
Where the grammar requires a token, a tree has a slot.
-/

namespace PlainC

/-- Where a token stands: the number of tokens before it, its bytes and its line. -/
structure Place where
  index : Nat
  span : Span
  line : Nat
  deriving DecidableEq, Repr

/-- A thing with the place of the token it was read from. -/
structure At (α : Type) where
  value : α
  place : Place
  deriving DecidableEq, Repr

/-- A token with its place. -/
abbrev Lexeme := At Kind

/-- An identifier, or the text of a literal, with its place. -/
abbrev Name := At String

/-- What stands where something is required: the thing itself, or nothing, in front of the lexeme
that was met instead. -/
inductive Slot (α : Type) where
  | found (value : α)
  | missing (instead : Lexeme)
  deriving DecidableEq, Repr

/-- The lexemes of a list of tokens, numbered from an index on. -/
def Lexeme.number (index : Nat) : List Token → List Lexeme
  | [] => []
  | token :: rest => ⟨token.kind, ⟨index, token.span, token.line⟩⟩ :: number (index + 1) rest

end PlainC
