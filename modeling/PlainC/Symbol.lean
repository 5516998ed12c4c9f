import PlainC.Ty

set_option autoImplicit false

/-!
Symbols: what a declared name stands for.
-/

namespace PlainC

/-- What kind of thing a name stands for. -/
inductive SymbolClass where
  | var | function | external | struct
  deriving DecidableEq, Repr

/-- Where a variable lives. -/
inductive Storage where
  | global | argument | localVar
  deriving DecidableEq, Repr

/-- A declared name. The depth is zero outside of functions, and each function has one of its own;
`line` is that of the declaring name. A function has arguments and a struct has members. -/
structure Symbol where
  name : String
  cls : SymbolClass
  ty : Ty
  storage : Storage
  depth : Nat
  line : Nat
  args : List Symbol := []
  members : List Symbol := []
  deriving Repr

namespace Symbol

/-- Whether a name can be called. -/
def isCallable (symbol : Symbol) : Bool :=
  symbol.cls = .function || symbol.cls = .external

/-- The first member of the given name. -/
def member? (symbol : Symbol) (name : String) : Option Symbol :=
  symbol.members.find? fun member => member.name = name

mutual

/-- All names in a symbol: its own, those in its arguments, and those in its members. -/
def names : Symbol → List String
  | ⟨name, _, _, _, _, _, args, members⟩ => name :: (namesOfList args ++ namesOfList members)

def namesOfList : List Symbol → List String
  | [] => []
  | symbol :: rest => symbol.names ++ namesOfList rest

end

end Symbol

end PlainC
