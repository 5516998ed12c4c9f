import Mathlib.Data.List.Forall2
import PlainC.Proofs.Table.Changing
import PlainC.Proofs.Typing.Judgement

set_option autoImplicit false

/-!
What top-level declarations declare, as a judgement: for each name one symbol that stays, with all
that belongs to it. It says nothing of the bodies of functions.
-/

namespace PlainC

/-! ### Variables -/

/-- An array of an extent gets a number of elements, and has an extent then. -/
inductive Extent.Takes : Extent → Nat → Extent → Prop
  | sized {size count} : count ≤ size → Takes (sized size) count (sized size)
  | unsized {count} : 0 < count → Takes unsized count (sized count)
  | empty : Takes unsized 0 unsized

/-- Each of the expressions converts to the type of an element. -/
inductive Args.Elements (table : SymbolTable) (element : Ty) : Args → Prop
  | last {arg ty assignable} : arg.HasType table ty assignable → element.accepts ty = true →
      Elements table element (last arg)
  | more {arg comma rest ty assignable} : arg.HasType table ty assignable →
      element.accepts ty = true → Elements table element rest →
      Elements table element (more arg comma rest)

/-- The type that a variable of a declared type has with an initializer. -/
inductive Initializer.Sizes (table : SymbolTable) (declared : Ty) : Initializer → Ty → Prop
  | noElements {opening closing extent} : declared.extent.Takes 0 extent →
      Sizes table declared (noElements opening closing) ⟨declared.base, extent⟩
  | elements {opening args closing extent} : args.Elements table declared.element →
      declared.extent.Takes args.length extent →
      Sizes table declared (elements opening args (.found closing)) ⟨declared.base, extent⟩
  | array {expr source assignable count extent} : expr.HasType table source assignable →
      declared.accepts source = true → source.extent = .sized count →
      declared.extent.Takes count extent →
      Sizes table declared (value expr) ⟨declared.base, extent⟩
  | value {expr source assignable} : expr.HasType table source assignable →
      declared.accepts source = true → (∀ count, source.extent ≠ .sized count) →
      Sizes table declared (value expr) declared

/-- The type of a variable. -/
inductive Declarator.HasType (table : SymbolTable) (base : Base) : Declarator → Ty → Prop
  | plain {name array extent} : array.Denotes extent →
      HasType table base ⟨name, array, none⟩ ⟨base, extent⟩
  | initialized {name array op initializer extent ty} : array.Denotes extent →
      initializer.Sizes table ⟨base, extent⟩ ty →
      HasType table base ⟨name, array, some (op, initializer)⟩ ty

/-- The symbols of variables, in order. Each of them is there for the initializers behind it. -/
inductive Variables (base : Base) : SymbolTable → List Declarator → List Symbol → Prop
  | nil {table} : Variables base table [] []
  | cons {table table' name array initializer ty rest symbols} :
      Declarator.HasType table base ⟨.found name, array, initializer⟩ ty →
      table'.symbols = table.symbols ++ [topLevelSymbol name .var ty] →
      Variables base table' rest symbols →
      Variables base table (⟨.found name, array, initializer⟩ :: rest)
        (topLevelSymbol name .var ty :: symbols)

/-- Each of the symbols is that of one of the variables. -/
theorem Variables.exists_of_mem {base : Base} {table : SymbolTable} {declarators : List Declarator}
    {symbols : List Symbol} (h : Variables base table declarators symbols) :
    ∀ symbol ∈ symbols, ∃ declarator ∈ declarators, ∃ name ty,
      declarator.name = .found name ∧ symbol = topLevelSymbol name .var ty := by
  induction h with
  | nil => nofun
  | cons _ _ _ ih =>
    refine List.forall_mem_cons.mpr ⟨⟨_, List.mem_cons_self, _, _, rfl, rfl⟩, fun symbol mem => ?_⟩
    obtain ⟨declarator, among, declares⟩ := ih symbol mem
    exact ⟨declarator, List.mem_cons_of_mem _ among, declares⟩

/-! ### Members and arguments -/

/-- The symbol of a member. -/
def memberSymbol (name : Name) (ty : Ty) : Symbol :=
  { name := name.value, cls := .var, ty, storage := .localVar, depth := 0, line := name.place.line }

inductive Declarator.IsMember (table : SymbolTable) (baseName : BaseName) :
    Declarator → Symbol → Prop
  | intro {name array base extent} : baseName.Denotes table base → array.Denotes extent →
      IsMember table baseName ⟨.found name, array, none⟩ (memberSymbol name ⟨base, extent⟩)

/-- The declarators of declarations in order, each with the base type in front of it. -/
def VarDecl.withBase (decl : VarDecl) : List (BaseName × Declarator) :=
  decl.declarators.toList.map fun declarator => (decl.base, declarator)

inductive Param.IsArg (table : SymbolTable) (depth : Nat) : Slot Param → Symbol → Prop
  | intro {baseName name array base extent} : baseName.Denotes table base → array.Denotes extent →
      IsArg table depth (.found ⟨baseName, .found name, array⟩) (Param.symbol depth name base extent)

/-! ### Declarations -/

/-- The type of what a function gives, an array of any size with a star. -/
inductive ResultType.Denotes (table : SymbolTable) : ResultType → Ty → Prop
  | void {word} : Denotes table (void word) .void
  | value {baseName base} : baseName.Denotes table base →
      Denotes table (value baseName) ⟨base, .scalar⟩
  | array {baseName star base} : baseName.Denotes table base →
      Denotes table (array baseName star) ⟨base, .unsized⟩

/-- The symbols of a declaration behind a table and a number of functions. -/
inductive Decl.Declares (table : SymbolTable) (functions : Nat) : Decl → List Symbol → Prop
  | struct {word name opening members closing semicolon symbols} :
      List.Forall₂ (fun member => Declarator.IsMember table member.1 member.2)
        (members.flatMap VarDecl.withBase) symbols →
      Declares table functions (struct word name opening members (.found closing) (.found semicolon))
        [{ topLevelSymbol name .struct (.struct table.size) with members := symbols }]
  | function {result name opening params closing body ty args} : result.Denotes table ty →
      List.Forall₂ (Param.IsArg table (functions + 1)) ((params.map Separated.toList).getD []) args →
      Declares table functions (function result name opening params (.found closing) (.found body))
        [{ topLevelSymbol name .function ty with args }]
  | vars {tried baseName declarators semicolon base symbols} : baseName.Denotes table base →
      Variables base table declarators.toList symbols →
      Declares table functions (vars tried ⟨baseName, declarators, .found semicolon⟩) symbols

/-- The number of functions in a declaration. -/
def Decl.functions : Decl → Nat
  | function .. => 1
  | struct .. | vars .. | missing .. => 0

/-- The symbols of declarations in order, each of which is there for those behind it. -/
inductive Declarations : SymbolTable → Nat → List Decl → List Symbol → Prop
  | nil {table functions} : Declarations table functions [] []
  | cons {table table' functions decl rest symbols symbols'} :
      decl.Declares table functions symbols → table'.symbols = table.symbols ++ symbols →
      Declarations table' (functions + decl.functions) rest symbols' →
      Declarations table functions (decl :: rest) (symbols ++ symbols')

def Declarator.name? : Declarator → Option Name
  | ⟨.found name, _, _⟩ => some name
  | ⟨.missing _, _, _⟩ => none

/-- The names that a declaration declares at the top level. -/
def Decl.names : Decl → List Name
  | struct _ name _ _ _ _ | function _ name _ _ _ _ => [name]
  | vars _ decl => decl.declarators.toList.filterMap Declarator.name?
  | missing _ _ => []

/-- The name of the struct that is declared. -/
def Decl.structName? : Decl → Option String
  | struct _ name _ _ _ _ => some name.value
  | function .. | vars .. | missing .. => none

end PlainC
