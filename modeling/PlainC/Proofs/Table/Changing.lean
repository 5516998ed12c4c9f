import PlainC.Decl.Check
import PlainC.Proofs.Checking.Gives
import PlainC.Proofs.Table.Lookup
import PlainC.SymbolTable.Externals

set_option autoImplicit false

/-!
Changing: what is declared stands behind everything else, and its name was not taken at its depth.
-/

namespace PlainC

/-- Changing a symbol behind the front of a list. -/
theorem modify_append_right (front symbols : List Symbol) (index : Nat)
    (change : Symbol → Symbol) : (front ++ symbols).modify (front.length + index) change =
      front ++ symbols.modify index change := by
  induction front with
  | nil => simp
  | cons symbol front ih =>
    rw [List.length_cons, Nat.add_right_comm]
    simp [ih]

namespace SymbolTable

variable {table table' : SymbolTable}

@[simp] theorem symbols_intern (table : SymbolTable) (name : String) :
    (table.intern name).symbols = table.symbols := by
  unfold intern
  split <;> rfl

@[simp] theorem symbols_internAll (table : SymbolTable) (names : List String) :
    (table.internAll names).symbols = table.symbols := by
  unfold internAll
  induction names generalizing table with
  | nil => rfl
  | cons name names ih => rw [List.foldl_cons, ih, symbols_intern]

/-- The name of the symbol is not taken at its depth. -/
def Fresh (symbols : List Symbol) (symbol : Symbol) : Prop :=
  ∀ other ∈ symbols, ¬(other.name = symbol.name ∧ other.depth = symbol.depth)

/-- The name of the member is not taken in the struct with an index. -/
def FreshMember (symbols : List Symbol) (index : Nat) (member : Symbol) : Prop :=
  ∀ owner, symbols[index]? = some owner → ∀ other ∈ owner.members, other.name ≠ member.name

theorem findAtDepth?_eq_none_iff {symbol : Symbol} :
    table.findAtDepth? symbol.name symbol.depth = none ↔ Fresh table.symbols symbol := by
  simp [findAtDepth?, findLast?_eq_none_iff, Fresh]

/-- Meeting names takes no name. -/
theorem findAtDepth?_internAll (table : SymbolTable) (names : List String) :
    (table.internAll names).findAtDepth? = table.findAtDepth? := by
  have get : (table.internAll names).get? = table.get? := by
    funext index
    rw [get?, get?, symbols_internAll]
  funext name depth
  rw [findAtDepth?, findAtDepth?, findLast?, findLast?, symbols_internAll, get]

theorem declare_eq (table : SymbolTable) (name : Name) (symbol : Symbol) :
    table.declare name symbol = match table.findAtDepth? symbol.name symbol.depth with
      | some previous => Checked.redefined name previous.line
      | none =>
        pure { table.internAll symbol.names with symbols := table.symbols ++ [symbol] } := by
  unfold declare add
  simp only [findAtDepth?_internAll]
  cases table.findAtDepth? symbol.name symbol.depth <;> simp

/-- A declaration passes just if the name is not taken, and then only appends the symbol. -/
theorem gives_declare {name : Name} {symbol : Symbol} :
    (table.declare name symbol).Gives table' ↔ Fresh table.symbols symbol ∧
      table' = { table.internAll symbol.names with symbols := table.symbols ++ [symbol] } := by
  rw [← findAtDepth?_eq_none_iff, declare_eq]
  cases table.findAtDepth? symbol.name symbol.depth with
  | none => simp
  | some previous => simp [Checked.redefined]

@[simp] theorem symbols_addArg (table : SymbolTable) (index : Nat) (arg : Symbol) :
    (table.addArg index arg).symbols = table.symbols.modify index fun symbol =>
      { symbol with args := symbol.args ++ [arg] } := by
  simp [addArg, SymbolTable.modify]

@[simp] theorem symbols_addMember (table : SymbolTable) (index : Nat) (member : Symbol) :
    (table.addMember index member).symbols = table.symbols.modify index fun symbol =>
      { symbol with members := symbol.members ++ [member] } := by
  simp [addMember, SymbolTable.modify]

@[simp] theorem symbols_truncate (table : SymbolTable) (size : Nat) :
    (table.truncate size).symbols = table.symbols.take size := rfl

theorem symbols_initial : initial.symbols = externals := by
  rfl

end SymbolTable

open SymbolTable (Fresh FreshMember)

variable {table table' : SymbolTable}

/-- The declaration of a variable appends its symbol, and that of a member changes the struct. -/
theorem Region.symbols_declare {region : Region} {name : Name} {ty : Ty}
    (h : (region.declare table name ty).Gives table') :
    match region with
    | .topLevel | .body _ => Fresh table.symbols (region.variableSymbol name ty) ∧
      table'.symbols = table.symbols ++ [region.variableSymbol name ty]
    | .members index _ => table'.symbols = table.symbols.modify index fun symbol =>
      { symbol with members := symbol.members ++ [region.variableSymbol name ty] } := by
  unfold Region.declare at h
  cases region with
  | topLevel | body =>
    obtain ⟨fresh, rfl⟩ := SymbolTable.gives_declare.mp h
    exact ⟨fresh, rfl⟩
  | members index struct =>
    simp only [Checked.gives_ite, Checked.gives_violate, and_false, false_or] at h
    obtain ⟨-, h⟩ := h
    split at h
    · exact absurd h Checked.gives_violate
    · obtain rfl := Checked.gives_pure.mp h
      simp

theorem Region.freshMember_of_gives {index : Nat} {struct : String} {name : Name} {ty : Ty}
    (h : ((members index struct).declare table name ty).Gives table') :
    FreshMember table.symbols index ((members index struct).variableSymbol name ty) := by
  intro owner found other mem same
  have among : owner.member? name.value ≠ none := by
    rw [Symbol.member?, ne_eq, List.find?_eq_none]
    intro unnamed
    exact unnamed other mem (decide_eq_true same)
  obtain ⟨previous, taken⟩ := Option.ne_none_iff_exists'.mp among
  simp only [Region.declare, SymbolTable.get?, found, Option.bind_some, taken, Checked.gives_ite,
    Checked.gives_violate, Checked.redefined, and_false, or_false] at h

theorem Declarator.gives_declare {region : Region} {base : Base} {declarator : Declarator} :
    (declarator.declare region base table).Gives table' ↔ ∃ name ty,
      declarator.name = .found name ∧ (declarator.type region table name base).Gives ty ∧
        (region.declare table name ty).Gives table' := by
  simp only [Declarator.declare, Checked.gives_bind, Checked.gives_require]
  constructor
  · rintro ⟨name, found, ty, typed, declared⟩
    exact ⟨name, ty, found, typed, declared⟩
  · rintro ⟨name, ty, found, typed, declared⟩
    exact ⟨name, found, ty, typed, declared⟩

/-- The symbol of a parameter, whose size is any if it is an array. -/
def Param.symbol (depth : Nat) (name : Name) (base : Base) (extent : Extent) : Symbol :=
  { name := name.value, cls := .var, ty := ⟨base, extent.ofParameter⟩, storage := .argument, depth,
    line := name.place.line }

theorem Param.gives_declare {index depth : Nat} {slot : Slot Param} :
    (Param.declare index depth table slot).Gives table' ↔ ∃ param base name extent,
      slot = .found param ∧ (param.base.resolve table).Gives base ∧ param.name = .found name ∧
        param.array.extent.Gives extent ∧
        Fresh table.symbols (Param.symbol depth name base extent) ∧
        table' = { table.internAll (Param.symbol depth name base extent).names with
          symbols := table.symbols ++ [Param.symbol depth name base extent]
            }.addArg index (Param.symbol depth name base extent) := by
  simp only [Param.declare, Checked.gives_bind, Checked.gives_require,
    SymbolTable.gives_declare, Checked.gives_pure]
  constructor
  · rintro ⟨param, found, base, resolved, name, named, extent, sized, _, ⟨fresh, rfl⟩, rfl⟩
    exact ⟨param, base, name, extent, found, resolved, named, sized, fresh, rfl⟩
  · rintro ⟨param, base, name, extent, found, resolved, named, sized, fresh, rfl⟩
    exact ⟨param, found, base, resolved, name, named, extent, sized, _, ⟨fresh, rfl⟩, rfl⟩

end PlainC
